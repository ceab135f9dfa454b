import Covenant.Chain
import Covenant.Member

/-! Covenant members on one chain: any number of submission loops, interleaved in any
order with each other and with the moves of the chain. A member does not sign again
what the chain has shown it as signed (`no_resigning`). -/

namespace Covenant.Committee
open Outcome Lists Interaction Reactor Bitcoin Covenant.Types Emulator Signing Loop Controller
  Records Chain Runs Ticks Member Reference

/-! ## Runs of a committee -/

variable {lib : Lib} {ι : Type} [DecidableEq ι] {bc : ι → BabylonController}
  {ce₀ : ι → CovenantEmulator} {c₀ : Ledger lib}

abbrev Log (ι : Type) := List (Label ι bbnClient CovenantEmulator)

/-- Member `i` signs in with the client `bc i` and starts in the phase `ph₀ i`. -/
abbrev RunFrom (lib : Lib) (bc : ι → BabylonController)
    (ph₀ : ι → Phase bbnClient Halt CovenantEmulator) (c₀ : Ledger lib) (ls : Log ι)
    (ph : ι → Phase bbnClient Halt CovenantEmulator) (c : Ledger lib) : Prop :=
  System.Run (babylon lib ι) (fun i => memberTick lib (bc i)) ph₀ c₀ ls ph c

/-- Member `i` starts as `ce₀ i`, with its ticker. -/
abbrev CommitteeRun (lib : Lib) (bc : ι → BabylonController) (ce₀ : ι → CovenantEmulator) :
    Ledger lib → Log ι → (ι → Phase bbnClient Halt CovenantEmulator) → Ledger lib → Prop :=
  RunFrom lib bc fun i => .select (ce₀ i)

/-- A page that was answered shows the chain as it stood then. -/
theorem page_of_run {ph₀ ph : ι → Phase bbnClient Halt CovenantEmulator} {ls ks : Log ι} {c : Ledger lib}
    {i : ι} {status : BTCDelegationStatus} {pagination : PageRequest} {res : BTCDelegationsResponse}
    (h : RunFrom lib bc ph₀ c₀ (ls ++ .act i (.event (paged status pagination res)) :: ks) ph c) :
    ∃ ph₁ c₁, RunFrom lib bc ph₀ c₀ ls ph₁ c₁ ∧
      res.btcDelegations.elems = c₁.page status pagination ∧ c₁.Grows c := by
  obtain ⟨ph₁, c₁, c₂, hr, ⟨hc, hres⟩, hg⟩ := System.Run.event (R := Ledger.Grows) Ledger.Grows.refl
    (fun h₁ h₂ => h₁.trans h₂) grows_of_evolves grows_of_responds h
  rw [hc] at hg
  exact ⟨ph₁, c₁, hr, (hres res rfl).1, hg⟩

/-- A tick changes neither the key nor the configuration of the member. -/
theorem memberTick_keeps {b : BabylonController} {ce ce' : CovenantEmulator} {t : RpcTrace}
    (h : Prog.Steps (memberTick lib b ce) t (.ret ce')) :
    ce'.pk = ce.pk ∧ ce'.config = ce.config := by
  obtain ⟨s, hs, _⟩ := Prog.steps_interp_ret h
  rcases (steps_tick hs).ret_eq rfl with rfl | ⟨params, rfl⟩
  · exact ⟨rfl, rfl⟩
  · exact ⟨rfl, rfl⟩

theorem tick_keeps {b : BabylonController} {ce₁ ce : CovenantEmulator}
    {as : List (Action bbnClient CovenantEmulator)} {ph : Phase bbnClient Halt CovenantEmulator}
    (h : Reactor.Run (memberTick lib b) ce₁ as ph) (htick : .tick ce ∈ as) :
    ce.pk = ce₁.pk ∧ ce.config = ce₁.config := by
  refine (h.invariant (P := fun s => s.pk = ce₁.pk ∧ s.config = ce₁.config) ⟨rfl, rfl⟩ ?_).2 ce htick
  rintro s t s' ⟨hpk, hconfig⟩ hs
  obtain ⟨hpk', hconfig'⟩ := memberTick_keeps hs
  exact ⟨hpk'.trans hpk, hconfig'.trans hconfig⟩

/-! ## Messages and records -/

/-- The message is for the delegation that the record shows. -/
def Concerns (lib : Lib) (m : MsgAddCovenantSigs) (r : BTCDelegation) : Prop :=
  (recordHash lib r).map lib.hashString = some m.stakingTxHash

theorem concerns_entry {m : MsgAddCovenantSigs} {x : Entry lib} :
    Concerns lib m x.record ↔ lib.hashString x.hash = m.stakingTxHash := by
  unfold Concerns
  rw [x.keyed, Option.map_some, Option.some.injEq]

theorem concerns_of_accepted {b : BabylonController} {ce : CovenantEmulator} {r : BTCDelegation}
    {d : Delegation} {m : MsgAddCovenantSigs} (hd : convertDelegationType lib r = .ok d)
    (a : Accepted lib ce (some d)) (hm : msgAddCovenantSigs lib b a.sigs = .ok m) :
    Concerns lib m r := by
  obtain ⟨signer, _, hm⟩ := bind_eq_ok_iff.mp hm
  cases hm
  have hparse := a.checks.staking_parses
  rw [← Option.some.inj a.del_eq] at hparse
  unfold Concerns
  rw [recordHash_of_converts (convertDelegationType_eq_ok_iff.mp hd) hparse]
  rfl

theorem concerns_of_signs {b : BabylonController} {ce : CovenantEmulator} {r : BTCDelegation}
    {m : MsgAddCovenantSigs} (h : Signs lib b ce r m) : Concerns lib m r := by
  obtain ⟨d, s, hd, _, hs, hm⟩ := h
  obtain ⟨a, rfl⟩ := (signDelegation_eq_some_iff lib ce _ _).mp hs
  exact concerns_of_accepted hd a hm

/-- What a member signs does not list its key. -/
theorem not_signer_of_signs (henc : lib.KeyEncoding) {b : BabylonController} {ce : CovenantEmulator}
    {r : BTCDelegation} {m : MsgAddCovenantSigs} (h : Signs lib b ce r m) :
    ce.pk.x ∉ signers r := by
  obtain ⟨d, s, hd, hun, _, _⟩ := h
  intro hmem
  rw [(alreadySigned_iff henc (convertDelegationType_eq_ok_iff.mp hd)).mpr hmem] at hun
  cases hun

theorem mem_page {c : Ledger lib} {status : BTCDelegationStatus} {pagination : PageRequest}
    {r : BTCDelegation} (h : r ∈ c.page status pagination) : ∃ x ∈ c.dels.entries, x.record = r := by
  obtain ⟨xs, hxs, hsub⟩ := c.page_entries status pagination
  rw [hxs] at h
  obtain ⟨x, hx, rfl⟩ := List.mem_map.mp h
  exact ⟨x, hsub.subset hx, rfl⟩

/-- A later page shows at least the signers that an earlier page shows. -/
theorem signers_subset_of_pages {c c' : Ledger lib} (hg : c.Grows c')
    {status status' : BTCDelegationStatus} {pagination pagination' : PageRequest}
    {r r' : BTCDelegation} {m : MsgAddCovenantSigs} (hr : r ∈ c.page status pagination)
    (hr' : r' ∈ c'.page status' pagination') (hm : Concerns lib m r) (hm' : Concerns lib m r') :
    signers r ⊆ signers r' := by
  obtain ⟨x, hx, rfl⟩ := mem_page hr
  obtain ⟨y, hy, rfl⟩ := mem_page hr'
  rw [concerns_entry] at hm hm'
  have hkey : x.hash = y.hash := lib.hashString_injective (hm.trans hm'.symm)
  exact (Registry.Grows.of_key (fun h => h.hash_eq) hg hx hy hkey).signers_subset

/-- Two pages show the same transactions and terms of a delegation. -/
theorem bareRecord_eq_of_pages {c₁ c₂ c : Ledger lib} (hg₁ : c₁.Grows c) (hg₂ : c₂.Grows c)
    {status status' : BTCDelegationStatus} {pagination pagination' : PageRequest}
    {r r' : BTCDelegation} {m m' : MsgAddCovenantSigs} (hr : r ∈ c₁.page status pagination)
    (hr' : r' ∈ c₂.page status' pagination') (hm : Concerns lib m r) (hm' : Concerns lib m' r')
    (hhash : m.stakingTxHash = m'.stakingTxHash) : bareRecord r = bareRecord r' := by
  obtain ⟨x, hx, rfl⟩ := mem_page hr
  obtain ⟨y, hy, rfl⟩ := mem_page hr'
  rw [concerns_entry] at hm hm'
  have hkey : x.hash = y.hash := lib.hashString_injective (by rw [hm, hm', hhash])
  obtain ⟨z, _, hxz, hyz⟩ := Registry.Grows.meet (fun h => h.hash_eq) hg₁ hg₂ hx hy hkey
  exact hxz.bare_eq.symm.trans hyz.bare_eq

/-! ## No re-signing -/

/-- The records that a tick was shown. -/
def snapshot (t : RpcTrace) : List BTCDelegation := (pages t).flatMap (·.btcDelegations.elems)

/-- The calls `t` are the first ones, or all, of a tick in `as`. -/
def InRound (as : List (Action bbnClient CovenantEmulator)) (ce : CovenantEmulator) (t : RpcTrace) :
    Prop :=
  ∃ as' bs, as = as' ++ .tick ce :: t.map .event ++ bs

/-- A member with the x-only key `key` that has done `as` has never signed again. -/
structure NoResigning (lib : Lib) (key : BIP340PubKey)
    (as : List (Action bbnClient CovenantEmulator)) : Prop where
  /-- Nothing is sent for a delegation that the tick's snapshot shows as signed. -/
  fresh : ∀ ce t, InRound as ce t → ∀ r ∈ snapshot t, key ∈ signers r →
    ∀ m ∈ (sends t).flatten, ¬ Concerns lib m r
  /-- A tick sends at most one message for each time that a delegation is listed. -/
  once : ∀ ce t, InRound as ce t → ∀ hash : String,
    (sends t).flatten.countP (fun m => m.stakingTxHash = hash) ≤
      (snapshot t).countP fun r => (recordHash lib r).map lib.hashString = some hash
  /-- After a snapshot that shows the signature nothing is sent for the delegation. -/
  never_again : ∀ as₁ as₂ as₃ status pagination res msgs answer,
    as = as₁ ++ .event (paged status pagination res) :: as₂ ++
      .event ⟨.reliablySendMsgs msgs, answer⟩ :: as₃ →
    ∀ r ∈ res.btcDelegations.elems, key ∈ signers r → ∀ m ∈ msgs, ¬ Concerns lib m r

theorem InRound.event_mem {as : List (Action bbnClient CovenantEmulator)} {ce : CovenantEmulator}
    {t : RpcTrace} (h : InRound as ce t) {e : Event bbnClient} (he : e ∈ t) : .event e ∈ as := by
  obtain ⟨as', bs, rfl⟩ := h
  simp [he]

theorem steps_of_inRound {b : BabylonController} {ce₁ ce : CovenantEmulator} {t : RpcTrace}
    {as : List (Action bbnClient CovenantEmulator)} {ph : Phase bbnClient Halt CovenantEmulator}
    (h : Reactor.Run (memberTick lib b) ce₁ as ph) (hround : InRound as ce t) :
    ce.pk = ce₁.pk ∧ ce.config = ce₁.config ∧ ∃ q, Prog.Steps (memberTick lib b ce) t q := by
  obtain ⟨as', bs, rfl⟩ := hround
  have htick : Action.tick ce ∈ as' ++ .tick ce :: t.map .event ++ bs := by simp
  obtain ⟨hpk, hconfig⟩ := tick_keeps h htick
  obtain ⟨_, h'⟩ := h.of_append
  obtain ⟨_, q, _, hs⟩ := Reactor.Run.round h'
  exact ⟨hpk, hconfig, q, hs⟩

theorem page_of_mem {ls : Log ι} {ph : ι → Phase bbnClient Halt CovenantEmulator} {c : Ledger lib}
    {i : ι} {status : BTCDelegationStatus} {pagination : PageRequest} {res : BTCDelegationsResponse}
    (h : CommitteeRun lib bc ce₀ c₀ ls ph c)
    (hmem : .event (paged status pagination res) ∈ System.actions i ls) :
    ∃ c₁ : Ledger lib, res.btcDelegations.elems = c₁.page status pagination ∧ c₁.Grows c := by
  obtain ⟨as, bs, heq⟩ := List.append_of_mem hmem
  obtain ⟨ls₁, ls₂, rfl, _, _⟩ := System.append_cons_of_actions heq
  obtain ⟨_, c₁, _, hres, hg⟩ := page_of_run h
  exact ⟨c₁, hres, hg⟩

theorem Sent.snapshot_eq {b : BabylonController} {ce : CovenantEmulator} {t : RpcTrace}
    {ckpt : BTCCheckpointParams} {staking : BTCStakingParams} {p : StakingParams}
    {res : BTCDelegationsResponse} {rs : List BTCDelegation}
    (h : Member.Sent lib b ce t ckpt staking p res rs) : snapshot t = res.btcDelegations.elems := by
  unfold snapshot
  rw [h.page_only]
  exact List.flatMap_singleton _ _

/-- Each message of a tick is the signature on a record of its page. -/
theorem Sent.record_of_mem {b : BabylonController} {ce : CovenantEmulator} {t : RpcTrace}
    {ckpt : BTCCheckpointParams} {staking : BTCStakingParams} {p : StakingParams}
    {res : BTCDelegationsResponse} {rs : List BTCDelegation}
    (h : Member.Sent lib b ce t ckpt staking p res rs) {m : MsgAddCovenantSigs}
    (hm : m ∈ (sends t).flatten) :
    ∃ r ∈ res.btcDelegations.elems, Signs lib b (withParams ce p) r m := by
  obtain ⟨k, hk, rfl⟩ := List.getElem_of_mem hm
  have hk' : k < rs.length := h.signs.length_eq ▸ hk
  exact ⟨rs[k], h.sublist.subset (List.getElem_mem hk'), h.signs.get hk' hk⟩

/-- A record that a member signs is not one that an earlier page, or the same one, shows
with the member's key. -/
theorem not_concerns (henc : lib.KeyEncoding) {b : BabylonController} {ce : CovenantEmulator}
    {c c' : Ledger lib} (hg : c.Grows c') {status status' : BTCDelegationStatus}
    {pagination pagination' : PageRequest} {r r' : BTCDelegation} {m : MsgAddCovenantSigs}
    (hr : r ∈ c.page status pagination) (hkey : ce.pk.x ∈ signers r)
    (hr' : r' ∈ c'.page status' pagination') (hsigns : Signs lib b ce r' m) :
    ¬ Concerns lib m r := by
  intro hm
  have hsub := signers_subset_of_pages hg hr hr' hm (concerns_of_signs hsigns)
  exact not_signer_of_signs henc hsigns (hsub hkey)

/-- What stands behind a message that was sent: the tick, up to the call that sends it. -/
theorem sent_of_send {b : BabylonController} {ce₁ : CovenantEmulator}
    {as bs : List (Action bbnClient CovenantEmulator)} {ph : Phase bbnClient Halt CovenantEmulator}
    {msgs : List MsgAddCovenantSigs} {answer : Except GoError RelayerTxResponse}
    {m : MsgAddCovenantSigs}
    (h : Reactor.Run (memberTick lib b) ce₁ (as ++ .event ⟨.reliablySendMsgs msgs, answer⟩ :: bs) ph)
    (hm : m ∈ msgs) :
    ∃ as' ce t ckpt staking p res rs r, as = as' ++ .tick ce :: t.map .event ∧
      Member.Sent lib b ce (t ++ [⟨.reliablySendMsgs msgs, answer⟩]) ckpt staking p res rs ∧
      m ∈ (sends (t ++ [⟨.reliablySendMsgs msgs, answer⟩])).flatten ∧
      r ∈ res.btcDelegations.elems ∧ Signs lib b (withParams ce p) r m := by
  obtain ⟨as', ce, t, q, heq, hs⟩ := h.event
  have hmem : m ∈ (sends (t ++ [⟨.reliablySendMsgs msgs, answer⟩])).flatten := by
    refine List.mem_flatten.mpr ⟨msgs, ?_, hm⟩
    exact List.mem_filterMap.mpr ⟨⟨.reliablySendMsgs msgs, answer⟩, by simp, rfl⟩
  rcases memberTick_sends hs with hnil | ⟨ckpt, staking, p, res, rs, hsent⟩
  · rw [hnil] at hmem
    cases hmem
  · obtain ⟨r, hr, hsigns⟩ := Sent.record_of_mem hsent hmem
    exact ⟨as', ce, t, ckpt, staking, p, res, rs, r, heq, hsent, hmem, hr, hsigns⟩

/-- What is sent after a page was received is signed on a later page, or on that page. -/
theorem page_of_send {b : BabylonController} {ce₁ : CovenantEmulator}
    {as₁ as₂ as₃ : List (Action bbnClient CovenantEmulator)}
    {ph : Phase bbnClient Halt CovenantEmulator} {status : BTCDelegationStatus}
    {pagination : PageRequest} {res : BTCDelegationsResponse} {msgs : List MsgAddCovenantSigs}
    {answer : Except GoError RelayerTxResponse} {m : MsgAddCovenantSigs}
    (h : Reactor.Run (memberTick lib b) ce₁ (as₁ ++ .event (paged status pagination res) :: as₂ ++
      .event ⟨.reliablySendMsgs msgs, answer⟩ :: as₃) ph) (hm : m ∈ msgs) :
    ∃ ce res' r', ce.pk = ce₁.pk ∧ r' ∈ res'.btcDelegations.elems ∧ Signs lib b ce r' m ∧
      ∃ limit, .event (paged .pending ⟨none, limit⟩ res') ∈ as₂ ∨
        res' = res ∧ .event (paged .pending ⟨none, limit⟩ res') ∈
          as₁ ++ .event (paged status pagination res) :: as₂ := by
  obtain ⟨as', ce, t, ckpt, staking, params, res', rs, r', heq, hsent, _, hr', hsigns⟩ :=
    sent_of_send h hm
  have htick : Action.tick ce ∈ as₁ ++ .event (paged status pagination res) :: as₂ ++
      .event ⟨.reliablySendMsgs msgs, answer⟩ :: as₃ := by
    rw [heq]
    simp
  obtain ⟨hpk, _⟩ := tick_keeps h htick
  have hpage : paged .pending ⟨none, ce.config.delegationLimit⟩ res' ∈ t := by
    have := hsent.page_mem
    simpa using this
  refine ⟨withParams ce params, res', r', hpk, hr', hsigns, ce.config.delegationLimit, ?_⟩
  -- the page `res` was received before the tick that sends, or during it
  rcases List.append_eq_append_iff.mp heq with ⟨w, _, hw⟩ | ⟨w, rfl, hw⟩
  · cases w with
    | nil => cases hw
    | cons x w =>
      obtain ⟨_, rfl⟩ := List.cons.inj hw
      exact Or.inl (by simp [hpage])
  · cases w with
    | nil => cases hw
    | cons x w =>
      obtain ⟨_, hw⟩ := List.cons.inj hw
      have hres : paged status pagination res ∈ t := by
        have : Action.event (paged status pagination res) ∈
            t.map (Action.event (S := CovenantEmulator)) := by simp [hw]
        simpa using this
      have hone : res ∈ pages (t ++ [⟨.reliablySendMsgs msgs, answer⟩]) :=
        List.mem_filterMap.mpr ⟨_, List.mem_append_left _ hres, rfl⟩
      rw [hsent.page_only] at hone
      refine Or.inr ⟨(List.mem_singleton.mp hone).symm, ?_⟩
      rw [heq]
      simp [hpage]

/-- Two pages of a member, the second one received after the first. -/
theorem pages_in_order {ls : Log ι} {ph : ι → Phase bbnClient Halt CovenantEmulator} {c : Ledger lib}
    {i : ι} {as bs : List (Action bbnClient CovenantEmulator)} {status status' : BTCDelegationStatus}
    {pagination pagination' : PageRequest} {res res' : BTCDelegationsResponse}
    (h : CommitteeRun lib bc ce₀ c₀ ls ph c)
    (heq : System.actions i ls = as ++ .event (paged status' pagination' res') :: bs)
    (hmem : .event (paged status pagination res) ∈ as) :
    ∃ c₁ c₂ : Ledger lib, res.btcDelegations.elems = c₁.page status pagination ∧
      res'.btcDelegations.elems = c₂.page status' pagination' ∧ c₁.Grows c₂ := by
  obtain ⟨ls₁, ls₂, rfl, rfl, _⟩ := System.append_cons_of_actions heq
  obtain ⟨_, c₂, hrun, hres', _⟩ := page_of_run h
  obtain ⟨c₁, hres, hg⟩ := page_of_mem hrun hmem
  exact ⟨c₁, c₂, hres, hres', hg⟩

/-- **No re-signing.** -/
theorem no_resigning (lib : Lib) (henc : lib.KeyEncoding) (bc : ι → BabylonController)
    (ce₀ : ι → CovenantEmulator) (c₀ : Ledger lib) (ls : Log ι)
    (ph : ι → Phase bbnClient Halt CovenantEmulator) (c : Ledger lib)
    (h : CommitteeRun lib bc ce₀ c₀ ls ph c) (i : ι) :
    NoResigning lib (ce₀ i).pk.x (System.actions i ls) where
  fresh ce t hround r hr hkey m hm := by
    obtain ⟨hpk, _, q, hs⟩ := steps_of_inRound (h.actions i) hround
    rcases memberTick_sends hs with hnil | ⟨ckpt, staking, p, res, rs, hsent⟩
    · rw [hnil] at hm
      cases hm
    · obtain ⟨r', hr', hsigns⟩ := Sent.record_of_mem hsent hm
      obtain ⟨c₁, hres, _⟩ := page_of_mem h (hround.event_mem hsent.page_mem)
      rw [Sent.snapshot_eq hsent, hres] at hr
      rw [hres] at hr'
      have hkey' : (withParams ce p).pk.x ∈ signers r := by
        rw [← hpk] at hkey
        exact hkey
      exact not_concerns henc (Ledger.Grows.refl c₁) hr hkey' hr' hsigns
  once ce t hround hash := by
    obtain ⟨_, _, q, hs⟩ := steps_of_inRound (h.actions i) hround
    rcases memberTick_sends hs with hnil | ⟨ckpt, staking, p, res, rs, hsent⟩
    · rw [hnil]
      exact Nat.zero_le _
    · rw [Sent.snapshot_eq hsent]
      refine Nat.le_trans (Nat.le_of_eq ?_) hsent.sublist.countP_le
      refine (countP_eq_of_forall₂ ?_ hsent.signs).symm
      intro r m hrm
      have hconcerns := concerns_of_signs hrm
      unfold Concerns at hconcerns
      simp only [hconcerns, Option.some.injEq]
  never_again as₁ as₂ as₃ status pagination res msgs answer heq r hr hkey m hm := by
    have hrun := h.actions i
    rw [heq] at hrun
    obtain ⟨ce, res', r', hpk, hr', hsigns, limit, hpage⟩ := page_of_send hrun hm
    rw [← hpk] at hkey
    rcases hpage with hpage | ⟨rfl, hpage⟩
    · obtain ⟨u, v, rfl⟩ := List.append_of_mem hpage
      have heq' : System.actions i ls = (as₁ ++ .event (paged status pagination res) :: u) ++
          .event (paged .pending ⟨none, limit⟩ res') ::
            (v ++ .event ⟨.reliablySendMsgs msgs, answer⟩ :: as₃) := by
        rw [heq]
        simp
      have hmem : Action.event (paged status pagination res) ∈
          as₁ ++ .event (paged status pagination res) :: u := by simp
      obtain ⟨c₁, c₂, hres, hres', hg⟩ := pages_in_order h heq' hmem
      rw [hres] at hr
      rw [hres'] at hr'
      exact not_concerns henc hg hr hkey hr' hsigns
    · have hmem : Action.event (paged .pending ⟨none, limit⟩ res') ∈ System.actions i ls := by
        rw [heq]
        exact List.mem_append_left _ hpage
      obtain ⟨c₁, hres, _⟩ := page_of_mem h hmem
      rw [hres] at hr hr'
      exact not_concerns henc (Ledger.Grows.refl c₁) hr hkey hr' hsigns

/-! ### Two members and a governance proposal -/

def sampleRecord : BTCDelegation where
  btcPk := (key 7).x
  fpBtcPkList := [(key 8).x]
  startHeight := 100
  endHeight := 105
  totalSat := 200000000
  stakingTx := some (serialize stakingTx)
  stakingOutputIdx := 0
  slashingTx := some ⟨serialize slashingTx⟩
  covenantSigs := []
  unbondingTime := 101
  btcUndelegation :=
    some ⟨some (serialize unbondingTx), some ⟨serialize unbondingSlashingTx⟩, none, [], []⟩

theorem converts_sampleRecord : Converts sampleLib sampleRecord sampleDelegation where
  stakingTx := ⟨_, rfl, rfl⟩
  slashingTx := ⟨_, rfl, rfl⟩
  covenantSigs := .nil
  undelegation := .some ⟨⟨_, rfl, rfl⟩, ⟨_, rfl, rfl⟩, .nil, .nil, rfl⟩
  fpBtcPks := .cons rfl .nil
  btcPk := rfl
  heights := ⟨rfl, rfl⟩
  totalSat := rfl
  stakingOutputIdx := rfl
  unbondingTime := rfl

theorem recordHash_sampleRecord : recordHash sampleLib sampleRecord = some stakingHash := by
  have hparse := newBTCTxFromHex_txHex stakingTx stakingTx_known
  rw [recordHash_of_converts converts_sampleRecord hparse, txHash_stakingTx]

def sampleEntry : Entry sampleLib where
  hash := stakingHash
  record := sampleRecord
  status := .pending
  keyed := recordHash_sampleRecord

def sampleLedger (quorum : UInt32) (mempool : List (List MsgAddCovenantSigs)) : Ledger sampleLib where
  ckptParams := ⟨10, 100⟩
  stakingParams := ⟨covenantPks.map (·.x), quorum, slashingAddress.encoded, 1, ⟨0⟩, ⟨10 ^ 17⟩, 100⟩
  dels := ⟨[sampleEntry], List.nodup_singleton _⟩
  mempool := mempool

def sampleController : BabylonController where
  key := "covenant-key"
  accountPrefix := "bbn"
  btcParams := .simNet
  keyring _ := .ok (.ok [1, 2, 3])
  mustBech32ifyAddressBytes accountPrefix _ :=
    .ok (accountPrefix ++ "1qypqxpq9qcrsszg2pvxq6rs0zqg3yyc5lzv7xu")

def paramsWith (quorum : UInt32) : StakingParams := { sampleParams with covenantQuorum := quorum }

theorem likeSample_paramsWith {quorum : UInt32} (hq : 0 < quorum) : LikeSample (paramsWith quorum) :=
  ⟨rfl, rfl, rfl, rfl, hq⟩

def msgOf (s : CovenantSigs) : MsgAddCovenantSigs where
  signer := "bbn1qypqxpq9qcrsszg2pvxq6rs0zqg3yyc5lzv7xu"
  pk := s.publicKey.x
  stakingTxHash := sampleLib.hashString s.stakingTxHash
  slashingTxSigs := s.slashingSigs
  unbondingTxSig := s.unbondingSig.bytes
  slashingUnbondingTxSigs := s.slashingUnbondingSigs

theorem msgAddCovenantSigs_sample (s : CovenantSigs) :
    msgAddCovenantSigs sampleLib sampleController s = .ok (msgOf s) := rfl

def msgWith (pk : PublicKey) (quorum : UInt32) : MsgAddCovenantSigs :=
  msgOf (sigsWith pk (paramsWith quorum))

def samplePage : BTCDelegationsResponse where
  btcDelegations := ⟨[sampleRecord], by decide⟩
  nextKey := none

/-- The calls of a tick in which the member signs the sample delegation and is told that
the transaction failed. -/
def rpcTick (pk : PublicKey) (quorum : UInt32) : RpcTrace :=
  [⟨.btcCheckpointParams, .ok (sampleLedger quorum []).ckptParams⟩,
    ⟨.btcStakingParams, .ok (sampleLedger quorum []).stakingParams⟩,
    paged .pending ⟨none, 100⟩ samplePage,
    ⟨.enter (some (paramsWith quorum)) [some sampleDelegation], ()⟩,
    ⟨.reliablySendMsgs [msgWith pk quorum], .error "timeout"⟩]

/-- The two calls that fetch the parameters. -/
theorem steps_fetch (quorum : UInt32) :
    Prog.Steps (queryStakingParams sampleLib sampleController)
      [⟨.btcCheckpointParams, .ok (sampleLedger quorum []).ckptParams⟩,
        ⟨.btcStakingParams, .ok (sampleLedger quorum []).stakingParams⟩]
      (.ret (.ok (paramsWith quorum))) :=
  .call (I := bbnClient) (c := .btcCheckpointParams) _
    (.call (I := bbnClient) (c := .btcStakingParams) _ (.refl _))

theorem carries_rpcTick (pk : PublicKey) (quorum : UInt32) :
    Prog.Carries (babylonController sampleLib sampleController)
      (tickWith pk (paramsWith quorum) (.error "timeout")) (rpcTick pk quorum) := by
  have hmsg : [sigsWith pk (paramsWith quorum)].mapM (msgAddCovenantSigs sampleLib sampleController) =
      .ok [msgWith pk quorum] :=
    mapM_eq_ok_iff.mpr (.cons (msgAddCovenantSigs_sample _) .nil)
  have hconv : convertAll sampleLib samplePage.btcDelegations = .ok sampleDels := by
    have hds : samplePage.btcDelegations.elems.mapM (convertDelegationType sampleLib) =
        .ok [sampleDelegation] :=
      mapM_eq_ok_iff.mpr (.cons (convertDelegationType_eq_ok_iff.mpr converts_sampleRecord) .nil)
    exact (convertAll_of_mapM hds).choose_spec
  refine .cons (t := [_, _]) ?_ (.cons (t := [_]) ?_ (.cons (t := [_]) ?_ (.cons (t := [_]) ?_ .nil)))
  · exact steps_fetch quorum
  · exact steps_of_convertAll hconv
  · exact .call (I := bbnClient) (c := .enter _ _) () (.refl _)
  · exact steps_of_msgs hmsg "timeout"

theorem steps_rpcTick (pk : PublicKey) {quorum : UInt32} (hq : 0 < quorum) :
    Prog.Steps (memberTick sampleLib sampleController (startWith pk)) (rpcTick pk quorum)
      (.ret (emulatorWith pk (paramsWith quorum))) :=
  (carries_rpcTick pk quorum).steps
    (steps_tickWith pk (paramsWith quorum) (likeSample_paramsWith hq) (.error "timeout"))

theorem answers_rpcTick {ι : Type} (i : ι) (pk : PublicKey) (quorum : UInt32)
    (mempool : List (List MsgAddCovenantSigs)) :
    System.Answers (babylon sampleLib ι) i (sampleLedger quorum mempool) (rpcTick pk quorum)
      (sampleLedger quorum (mempool ++ [[msgWith pk quorum]])) := by
  refine .cons ⟨rfl, ?_⟩ (.cons ⟨rfl, ?_⟩ (.cons ⟨rfl, ?_⟩ (.cons rfl (.cons rfl (.nil _)))))
  · intro ckpt h
    cases h
    rfl
  · intro staking h
    cases h
    rfl
  · intro res h
    cases h
    exact ⟨rfl, rfl⟩

/-- The even key of the one member and the odd key of the other. -/
def memberKey : Bool → PublicKey
  | true => key 1
  | false => ⟨(key 2).x, true⟩

def tickLog (b : Bool) (quorum : UInt32) : Log Bool :=
  .act b (.tick (startWith (memberKey b))) ::
    ((rpcTick (memberKey b) quorum).map fun e => .act b (.event e)) ++
    [.act b (.done (emulatorWith (memberKey b) (paramsWith quorum)))]

/-- A tick of one member, an update of the quorum, a tick of the other member. -/
def sampleLog : Log Bool := tickLog true 2 ++ [.env] ++ tickLog false 3

theorem run_sampleLog : ∃ ph c, CommitteeRun sampleLib (fun _ => sampleController)
    (fun b => startWith (memberKey b)) (sampleLedger 2 []) sampleLog ph c := by
  have hinit : CommitteeRun sampleLib (fun _ => sampleController)
      (fun b => startWith (memberKey b)) (sampleLedger 2 []) [] _ (sampleLedger 2 []) := .init
  have htick := hinit.complete rfl (steps_rpcTick (memberKey true) (by decide))
    (answers_rpcTick true (memberKey true) 2 [])
  have hgov := htick.env
    (EvolvesIf.govern _ (sampleLedger 3 []).ckptParams (sampleLedger 3 []).stakingParams trivial)
  have hlast := hgov.complete (i := false) rfl (steps_rpcTick (memberKey false) (by decide))
    (answers_rpcTick false (memberKey false) 3 [[msgWith (memberKey true) 2]])
  exact ⟨_, _, hlast⟩

/-! ### The signature of a member, and its next tick -/

/-- The message names the delegation by the hash of its staking transaction alone. -/
theorem stakingTxHash_msgWith (pk : PublicKey) (quorum : UInt32) :
    (msgWith pk quorum).stakingTxHash = sampleLib.hashString (txHash stakingTx) := rfl

def includedMsg : MsgAddCovenantSigs := msgWith (memberKey true) 2

/-- The chain once the message is included. -/
def includedLedger : Ledger sampleLib :=
  { (sampleLedger 2 [[includedMsg]]).rewrite (Entry.addAll [includedMsg])
      (Entry.grows_addAll [includedMsg]) with mempool := [] }

def includedEntry : Entry sampleLib where
  hash := stakingHash
  record := addCovenantSigs includedMsg sampleRecord
  status := .pending
  keyed := by
    rw [← recordHash_sampleRecord]
    exact recordHash_congr rfl

theorem addAll_includedMsg : sampleEntry.addAll [includedMsg] = includedEntry := by
  have hhash : sampleLib.hashString sampleEntry.hash = includedMsg.stakingTxHash := by
    have hlib : sampleLib.txHash = txHash := rfl
    rw [includedMsg, stakingTxHash_msgWith, ← hlib, txHash_stakingTx]
    rfl
  have hnew : includedMsg.pk ∉ signers sampleEntry.record := by
    simp [signers, sampleEntry, sampleRecord]
  have hadd : ∀ m, sampleEntry.addAll [m] = sampleEntry.addSigs m := fun _ => rfl
  rw [hadd, Entry.addSigs, if_pos ⟨hhash, hnew⟩]
  rfl

theorem entries_includedLedger : includedLedger.dels.entries = [includedEntry] :=
  congrArg (fun x => [x]) addAll_includedMsg

theorem signers_includedEntry : (memberKey true).x ∈ signers includedEntry.record :=
  List.mem_singleton_self _

def includedPage : BTCDelegationsResponse where
  btcDelegations := ⟨[includedEntry.record], by decide⟩
  nextKey := none

/-- What the member is shown of its signature. -/
def includedDelegation : Delegation :=
  { sampleDelegation with
    covenantSigs := [⟨⟨includedMsg.pk, false⟩, includedMsg.slashingTxSigs⟩]
    btcUndelegation := some ⟨txHex unbondingTx, txHex unbondingSlashingTx,
      [⟨⟨includedMsg.pk, false⟩, includedMsg.slashingUnbondingTxSigs⟩],
      [⟨⟨includedMsg.pk, false⟩, ⟨includedMsg.unbondingTxSig⟩⟩], none⟩ }

theorem converts_includedRecord : Converts sampleLib includedEntry.record includedDelegation :=
  { converts_sampleRecord with
    covenantSigs := .cons ⟨rfl, rfl⟩ .nil
    undelegation := .some ⟨⟨_, rfl, rfl⟩, ⟨_, rfl, rfl⟩, .cons ⟨rfl, rfl⟩ .nil,
      .cons ⟨rfl, rfl⟩ .nil, rfl⟩ }

/-- The member after its first tick. -/
def tickedMember : CovenantEmulator := emulatorWith (memberKey true) (paramsWith 2)

/-- The calls of a tick that finds nothing to sign. -/
def idleTick : RpcTrace :=
  [⟨.btcCheckpointParams, .ok (sampleLedger 2 []).ckptParams⟩,
    ⟨.btcStakingParams, .ok (sampleLedger 2 []).stakingParams⟩,
    paged .pending ⟨none, 100⟩ includedPage]

theorem steps_idleTick :
    Prog.Steps (memberTick sampleLib sampleController tickedMember) idleTick (.ret tickedMember) := by
  have hds : includedPage.btcDelegations.elems.mapM (convertDelegationType sampleLib) =
      .ok [includedDelegation] :=
    mapM_eq_ok_iff.mpr (.cons (convertDelegationType_eq_ok_iff.mpr converts_includedRecord) .nil)
  obtain ⟨hlen, hconv⟩ := convertAll_of_mapM hds
  have hw : workList sampleLib tickedMember [some includedDelegation] = .ok [] := rfl
  have hsteps : Prog.Steps (tick sampleLib tickedMember)
      [fetched (paramsWith 2), queried tickedMember ⟨[some includedDelegation], hlen⟩]
      (.ret tickedMember) := steps_tick_of (steps_processDelegations_of hw .nil)
  have hcarries : Prog.Carries (babylonController sampleLib sampleController)
      [fetched (paramsWith 2), queried tickedMember ⟨[some includedDelegation], hlen⟩] idleTick :=
    .cons (t := [_, _]) (steps_fetch 2) (.cons (t := [_]) (steps_of_convertAll hconv) .nil)
  exact hcarries.steps hsteps

theorem answers_idleTick {ι : Type} (i : ι) :
    System.Answers (babylon sampleLib ι) i includedLedger idleTick includedLedger := by
  refine .cons ⟨rfl, ?_⟩ (.cons ⟨rfl, ?_⟩ (.cons ⟨rfl, ?_⟩ (.nil _)))
  · intro ckpt h
    cases h
    rfl
  · intro staking h
    cases h
    rfl
  · intro res h
    cases h
    unfold Ledger.page Ledger.nextKey Ledger.listed
    rw [entries_includedLedger]
    exact ⟨rfl, rfl⟩

/-- The tick of one member, after which its transaction is included. -/
def includedLog : Log Bool := tickLog true 2 ++ [.env]

/-- Then it takes another tick. -/
def idleLog : Log Bool :=
  includedLog ++ .act true (.tick tickedMember) :: (idleTick.map fun e => .act true (.event e)) ++
    [.act true (.done tickedMember)]

theorem run_idleLog : ∃ ph, CommitteeRun sampleLib (fun _ => sampleController)
    (fun b => startWith (memberKey b)) (sampleLedger 2 []) idleLog ph includedLedger := by
  have hinit : CommitteeRun sampleLib (fun _ => sampleController)
      (fun b => startWith (memberKey b)) (sampleLedger 2 []) [] _ (sampleLedger 2 []) := .init
  have htick := hinit.complete rfl (steps_rpcTick (memberKey true) (by decide))
    (answers_rpcTick true (memberKey true) 2 [])
  have hincluded := htick.env (EvolvesIf.deliver _ [] [] [includedMsg] rfl trivial)
  exact ⟨_, hincluded.complete (i := true) (Function.update_self ..) steps_idleTick (answers_idleTick true)⟩

/-- The member was told that its transaction failed, and is shown its signature in the second
tick. -/
theorem no_resigning_sample :
    ∃ ph, CommitteeRun sampleLib (fun _ => sampleController) (fun b => startWith (memberKey b))
        (sampleLedger 2 []) idleLog ph includedLedger ∧
      InRound (System.actions true idleLog) tickedMember idleTick ∧
      includedEntry.record ∈ snapshot idleTick ∧ (memberKey true).x ∈ signers includedEntry.record ∧
      NoResigning sampleLib (memberKey true).x (System.actions true idleLog) := by
  obtain ⟨ph, h⟩ := run_idleLog
  exact ⟨ph, h, ⟨(System.actions true idleLog).take 7, _, rfl⟩, List.mem_singleton_self _,
    signers_includedEntry, no_resigning sampleLib sampleLib_keyEncoding _ _ _ _ ph _ h true⟩

end Covenant.Committee
